import Mathlib.Logic.Relation
import Orbot.Foundation.Counting

/-!
# The lock of the cache

Many threads read the cache at once, or one thread writes it. The mutex makes each critical section of
the lock functions one step, and `pthread_cond_wait` divides their loops into such sections. Any number
of threads call the functions in any order; the lock is in use from the start.
-/

namespace Orbot.Pdnsd

/-- The variables that `lock_mutex` guards. -/
structure CacheLock where
  cacheWLock : Bool
  cacheRLock : ℕ
  rPend : ℕ
  rwPend : ℕ
  rSusp : Bool

/-- `SUSP_THRESH`. -/
def suspThresh (rPend : ℕ) : ℕ := rPend / 2 + 2

/-- The loops that wait: in `lock_cache_r`, in `lock_cache_rw` and at the end of
`yield_lock_cache_rw`, and in `timedlock_cache_rw`. -/
inductive Waiter where
  | reader
  | writer
  | timed
deriving DecidableEq

/-- Where a thread is outside of the mutex: without the lock, in `pthread_cond_wait`, with the lock
that the functions or their soft versions got, or asleep in `yield_lock_cache_rw`. -/
inductive Phase where
  | outside
  | waiting (waiter : Waiter) (awake : Bool)
  | reading (soft : Bool)
  | writing (soft : Bool)
  | yielding
deriving DecidableEq

def Phase.isReading : Phase → Bool
  | .reading _ => true
  | _ => false

def Phase.isWriting : Phase → Bool
  | .writing _ => true
  | _ => false

def Phase.isPendingR : Phase → Bool
  | .waiting .reader _ => true
  | _ => false

def Phase.isPendingRw : Phase → Bool
  | .waiting .writer _ => true
  | .waiting .timed _ => true
  | _ => false

/-- The condition of the loop of `lock_cache_r`, which suspends readers while too many writers wait. -/
def CacheLock.readerWaits (l : CacheLock) : Bool × CacheLock :=
  if suspThresh l.rPend < l.rwPend then (true, { l with rSusp := true })
  else (l.rSusp || l.cacheWLock, l)

/-- From the test of the loop of `lock_cache_r` to where the mutex is given up. -/
def CacheLock.tryRead (l : CacheLock) : Phase × CacheLock :=
  match l.readerWaits with
  | (true, l) => (.waiting .reader false, l)
  | (false, l) =>
      (.reading false, { l with cacheRLock := l.cacheRLock + 1, rPend := l.rPend - 1 })

/-- The same for the functions that lock for writing. -/
def CacheLock.tryWrite (waiter : Waiter) (l : CacheLock) : Phase × CacheLock :=
  if l.cacheWLock = true ∨ l.cacheRLock ≠ 0 then (.waiting waiter false, l)
  else (.writing false, { l with cacheWLock := true, rwPend := l.rwPend - 1 })

/-- A round of the loops. -/
def CacheLock.attempt : Waiter → CacheLock → Phase × CacheLock
  | .reader, l => l.tryRead
  | waiter, l => l.tryWrite waiter

/-- What the lock functions count before their loops. -/
def CacheLock.pend : Waiter → CacheLock → CacheLock
  | .reader, l => { l with rPend := l.rPend + 1 }
  | _, l => { l with rwPend := l.rwPend + 1 }

/-- The lock functions up to where they give up the mutex for the first time. -/
def CacheLock.enter (waiter : Waiter) (l : CacheLock) : Phase × CacheLock :=
  (l.pend waiter).attempt waiter

/-- `unlock_cache_r`, without the signal. -/
def CacheLock.unlockR (l : CacheLock) : CacheLock :=
  if 0 < l.cacheRLock then { l with cacheRLock := l.cacheRLock - 1 } else l

/-- `unlock_cache_rw`, without the signal. -/
def CacheLock.unlockRw (l : CacheLock) : CacheLock :=
  { l with cacheWLock := false, rSusp := false }

/-- Whether `unlock_cache_rw` wakes a writer instead of all readers. -/
def CacheLock.PrefersWriter (l : CacheLock) : Prop := l.rPend = 0 ∨ suspThresh l.rPend < l.rwPend

variable {τ : Type}

/-- The lock, and where each thread is. -/
structure LockState (τ : Type) where
  lock : CacheLock
  phase : τ → Phase

/-- The lock of the loaded program, which no thread has called. -/
def LockState.start : LockState τ := ⟨⟨false, 0, 0, 0, false⟩, fun _ ↦ .outside⟩

/-- `pthread_cond_signal(&rw_cond)` wakes a writer, if there is one asleep. -/
inductive SignalsRw [DecidableEq τ] : (τ → Phase) → (τ → Phase) → Prop where
  | nobody {phase : τ → Phase} (h : ∀ t w, phase t = .waiting w false → w = .reader) :
      SignalsRw phase phase
  | wakes {phase : τ → Phase} (t : τ) {w : Waiter} (hw : w ≠ .reader)
      (h : phase t = .waiting w false) :
      SignalsRw phase (Function.update phase t (.waiting w true))

/-- `pthread_cond_broadcast(&r_cond)` wakes all readers. -/
def broadcastR (phase : τ → Phase) : τ → Phase := fun t ↦
  if phase t = .waiting .reader false then .waiting .reader true else phase t

/-- The end of `unlock_cache_rw` and of the first half of `yield_lock_cache_rw`. -/
inductive WakesNext [DecidableEq τ] (l : CacheLock) (phase : τ → Phase) : (τ → Phase) → Prop where
  | writer {phase' : τ → Phase} (h : l.PrefersWriter) (hsignal : SignalsRw phase phase') :
      WakesNext l phase phase'
  | readers (h : ¬l.PrefersWriter) : WakesNext l phase (broadcastR phase)

/-- What a thread finds and does in a critical section. -/
def LockState.move [DecidableEq τ] (s : LockState τ) (t : τ) (result : Phase × CacheLock) :
    LockState τ :=
  ⟨result.2, Function.update s.phase t result.1⟩

/-- A critical section of the lock functions, or the end of a wait. Only the thread `status`, which
serves the control socket, calls `empty_cache` and through it `timedlock_cache_rw`. -/
inductive LockStep [DecidableEq τ] (status : τ) (s : LockState τ) : LockState τ → Prop where
  | enter (t : τ) (w : Waiter) (h : s.phase t = .outside) (htimed : w = .timed → t = status) :
      LockStep status s (s.move t (s.lock.enter w))
  | woken (t : τ) (w : Waiter) (h : s.phase t = .waiting w true) :
      LockStep status s (s.move t (s.lock.attempt w))
  -- a condition variable may wake a thread that nobody has signalled
  | spurious (t : τ) (w : Waiter) (h : s.phase t = .waiting w false) :
      LockStep status s (s.move t (.waiting w true, s.lock))
  -- the time may be over for a thread that is woken at the same time
  | timeout (t : τ) (awake : Bool) (h : s.phase t = .waiting .timed awake) :
      LockStep status s (s.move t (.outside, { s.lock with rwPend := s.lock.rwPend - 1 }))
  | unlockR (t : τ) (h : s.phase t = .reading false) {phase : τ → Phase}
      (hphase : if s.lock.unlockR.cacheRLock = 0
        then SignalsRw (Function.update s.phase t .outside) phase
        else phase = Function.update s.phase t .outside) :
      LockStep status s ⟨s.lock.unlockR, phase⟩
  | unlockRw (t : τ) (h : s.phase t = .writing false) {phase : τ → Phase}
      (hphase : WakesNext s.lock (Function.update s.phase t .outside) phase) :
      LockStep status s ⟨s.lock.unlockRw, phase⟩
  -- the counters are read without the mutex before this, and may have changed
  | yield (t : τ) (h : s.phase t = .writing false) {phase : τ → Phase}
      (hphase : WakesNext s.lock (Function.update s.phase t .yielding) phase) :
      LockStep status s ⟨s.lock.unlockRw, phase⟩
  | relock (t : τ) (h : s.phase t = .yielding) :
      LockStep status s (s.move t (s.lock.enter .writer))

/-- A critical section of the soft lock functions, which the daemon calls when it exits. -/
inductive SoftStep [DecidableEq τ] (s : LockState τ) : LockState τ → Prop where
  | lockR (t : τ) (h : s.phase t = .outside) (hfree : s.lock.cacheWLock = false) :
      SoftStep s
        (s.move t (.reading true, { s.lock with cacheRLock := s.lock.cacheRLock + 1 }))
  | lockRw (t : τ) (h : s.phase t = .outside) (hfree : s.lock.cacheWLock = false)
      (hunread : s.lock.cacheRLock = 0) :
      SoftStep s (s.move t (.writing true, { s.lock with cacheWLock := true }))
  | unlockR (t : τ) (h : s.phase t = .reading true) :
      SoftStep s (s.move t (.outside, s.lock.unlockR))
  | unlockRw (t : τ) (h : s.phase t = .writing true) :
      SoftStep s (s.move t (.outside, { s.lock with cacheWLock := false }))

section Steps

variable {t : τ} {l : CacheLock} {w : Waiter} {x y : Phase} {phase phase' : τ → Phase}

/-- What an attempt can do. -/
inductive Attempt (l : CacheLock) : Waiter → Phase × CacheLock → Prop where
  | suspends (h : suspThresh l.rPend < l.rwPend) :
      Attempt l .reader (.waiting .reader false, { l with rSusp := true })
  | waits (hle : l.rwPend ≤ suspThresh l.rPend) (h : l.rSusp = true ∨ l.cacheWLock = true) :
      Attempt l .reader (.waiting .reader false, l)
  | reads (hle : l.rwPend ≤ suspThresh l.rPend) (hsusp : l.rSusp = false)
      (hfree : l.cacheWLock = false) :
      Attempt l .reader
        (.reading false, { l with cacheRLock := l.cacheRLock + 1, rPend := l.rPend - 1 })
  | busy {w : Waiter} (hw : w ≠ .reader) (h : l.cacheWLock = true ∨ l.cacheRLock ≠ 0) :
      Attempt l w (.waiting w false, l)
  | writes {w : Waiter} (hw : w ≠ .reader) (hfree : l.cacheWLock = false)
      (hunread : l.cacheRLock = 0) :
      Attempt l w (.writing false, { l with cacheWLock := true, rwPend := l.rwPend - 1 })

theorem attempt_tryWrite (hw : w ≠ .reader) (l : CacheLock) : Attempt l w (l.tryWrite w) := by
  rw [CacheLock.tryWrite]
  split
  next h => exact .busy hw h
  next h =>
    rw [not_or, Bool.not_eq_true, not_not] at h
    exact .writes hw h.1 h.2

theorem attempt_spec (w : Waiter) (l : CacheLock) : Attempt l w (l.attempt w) := by
  cases w with
  | reader =>
    rw [CacheLock.attempt, CacheLock.tryRead, CacheLock.readerWaits]
    by_cases hthresh : suspThresh l.rPend < l.rwPend
    · rw [if_pos hthresh]
      exact .suspends hthresh
    · rw [if_neg hthresh]
      have hle := Nat.le_of_not_lt hthresh
      cases hwaits : l.rSusp || l.cacheWLock with
      | true => exact .waits hle (Bool.or_eq_true_iff.mp hwaits)
      | false =>
        obtain ⟨hsusp, hfree⟩ := Bool.or_eq_false_iff.mp hwaits
        exact .reads hle hsusp hfree
  | writer => exact attempt_tryWrite (by decide) l
  | timed => exact attempt_tryWrite (by decide) l

theorem Phase.isPendingRw_iff : x.isPendingRw = true ↔ ∃ w awake, w ≠ .reader ∧ x = .waiting w awake := by
  constructor
  · intro h
    cases x with
    | waiting w awake =>
      refine ⟨w, awake, ?_, rfl⟩
      rintro rfl
      exact Bool.false_ne_true h
    | _ => exact absurd h Bool.false_ne_true
  · rintro ⟨w, awake, hw, rfl⟩
    cases w with
    | reader => exact absurd rfl hw
    | writer => rfl
    | timed => rfl

theorem Phase.isPendingR_iff : x.isPendingR = true ↔ ∃ awake, x = .waiting .reader awake := by
  constructor
  · intro h
    cases x with
    | waiting w awake =>
      cases w with
      | reader => exact ⟨awake, rfl⟩
      | writer => exact absurd h Bool.false_ne_true
      | timed => exact absurd h Bool.false_ne_true
    | _ => exact absurd h Bool.false_ne_true
  · rintro ⟨awake, rfl⟩
    rfl

theorem Phase.isPendingR_of_ne (hw : w ≠ .reader) (awake : Bool) :
    (Phase.waiting w awake).isPendingR = false := by
  cases w with
  | reader => exact absurd rfl hw
  | writer => rfl
  | timed => rfl

@[simp]
theorem LockState.move_lock [DecidableEq τ] (s : LockState τ) (t : τ) (result : Phase × CacheLock) :
    (s.move t result).lock = result.2 := rfl

@[simp]
theorem LockState.move_phase_self [DecidableEq τ] (s : LockState τ) (t : τ) (result : Phase × CacheLock) :
    (s.move t result).phase t = result.1 := Function.update_self _ _ _

theorem LockState.move_move [DecidableEq τ] (s : LockState τ) (t : τ) (first second : Phase × CacheLock) :
    (s.move t first).move t second = s.move t second := by
  rw [move, move, move, Function.update_idem]

/-- Threads are woken, and nothing else happens to them. -/
def Wakes (phase phase' : τ → Phase) : Prop := ∀ t,
  phase' t = phase t ∨ ∃ w, phase t = .waiting w false ∧ phase' t = .waiting w true

theorem SignalsRw.wakes_phase [DecidableEq τ] (h : SignalsRw phase phase') : Wakes phase phase' := by
  intro u
  cases h with
  | nobody => exact .inl rfl
  | wakes t hw h =>
    by_cases hu : u = t
    · rw [hu, Function.update_self]
      exact .inr ⟨_, h, rfl⟩
    · exact .inl (Function.update_of_ne hu _ _)

theorem wakes_broadcastR (phase : τ → Phase) : Wakes phase (broadcastR phase) := by
  intro t
  rw [broadcastR]
  split
  next h => exact .inr ⟨_, h, rfl⟩
  next => exact .inl rfl

theorem broadcastR_ne (phase : τ → Phase) (t : τ) : broadcastR phase t ≠ .waiting .reader false := by
  rw [broadcastR]
  split
  next => simp
  next h => exact h

theorem broadcastR_reader {awake : Bool} (h : phase t = .waiting .reader awake) :
    broadcastR phase t = .waiting .reader true := by
  rw [broadcastR, h]
  cases awake with
  | false => rfl
  | true => rfl

theorem WakesNext.wakes [DecidableEq τ] (h : WakesNext l phase phase') : Wakes phase phase' := by
  cases h with
  | writer _ hsignal => exact hsignal.wakes_phase
  | readers _ => exact wakes_broadcastR phase

/-- Waking changes which threads are awake only. -/
theorem Wakes.waiting (h : Wakes phase phase') {awake : Bool} (ht : phase t = .waiting w awake) :
    ∃ awake', phase' t = .waiting w awake' := by
  cases h t with
  | inl heq => exact ⟨awake, heq.trans ht⟩
  | inr hwoken =>
    obtain ⟨w', hasleep, hawake⟩ := hwoken
    exact ⟨true, (Phase.waiting.inj (hasleep.symm.trans ht)).1 ▸ hawake⟩

theorem Wakes.waiting_before (h : Wakes phase phase') {awake : Bool}
    (ht : phase' t = .waiting w awake) : ∃ awake', phase t = .waiting w awake' := by
  cases h t with
  | inl heq => exact ⟨awake, heq ▸ ht⟩
  | inr hwoken =>
    obtain ⟨w', hasleep, hawake⟩ := hwoken
    exact ⟨false, (Phase.waiting.inj (hawake.symm.trans ht)).1 ▸ hasleep⟩

theorem Wakes.asleep_before (h : Wakes phase phase') (ht : phase' t = .waiting w false) :
    phase t = .waiting w false := by
  cases h t with
  | inl heq => exact heq ▸ ht
  | inr hwoken =>
    obtain ⟨w', -, hawake⟩ := hwoken
    exact absurd (Phase.waiting.inj (hawake.symm.trans ht)).2 (by decide)

/-- A thread that is somewhere else has not left. -/
theorem waiting_of_update [DecidableEq τ] (hx : ∀ w awake, x ≠ .waiting w awake) {u : τ} {awake : Bool}
    (hu : Function.update phase t x u = .waiting w awake) : phase u = .waiting w awake := by
  by_cases hut : u = t
  · rw [hut, Function.update_self] at hu
    exact absurd hu (hx w awake)
  · exact (Function.update_of_ne hut _ _).symm.trans hu

theorem waiting_update [DecidableEq τ] (ht : ∀ w awake, phase t ≠ .waiting w awake) {u : τ}
    {awake : Bool} (hu : phase u = .waiting w awake) :
    Function.update phase t x u = .waiting w awake := by
  have hut : u ≠ t := fun heq ↦ ht w awake (heq ▸ hu)
  exact (Function.update_of_ne hut _ _).trans hu

end Steps

section Counting

variable [Fintype τ] {status t : τ} {s s' : LockState τ} {l : CacheLock} {w : Waiter}
  {x y : Phase} {phase phase' : τ → Phase}

theorem Wakes.countOf_eq (h : Wakes phase phase') {p : Phase → Bool}
    (hp : ∀ w, p (.waiting w true) = p (.waiting w false)) : countOf p phase' = countOf p phase := by
  rw [countOf_eq_sum, countOf_eq_sum]
  refine Finset.sum_congr rfl fun t _ ↦ ?_
  cases h t with
  | inl heq => rw [heq]
  | inr hwoken =>
    obtain ⟨w, hasleep, hawake⟩ := hwoken
    rw [hasleep, hawake, hp]

/-- The variables of the lock count the threads that have it and the threads that wait for it. -/
structure Counted (status : τ) (s : LockState τ) : Prop where
  cacheRLock : s.lock.cacheRLock = countOf Phase.isReading s.phase
  cacheWLock : s.lock.cacheWLock.toNat = countOf Phase.isWriting s.phase
  rPend : s.lock.rPend = countOf Phase.isPendingR s.phase
  rwPend : s.lock.rwPend = countOf Phase.isPendingRw s.phase
  exclusive : s.lock.cacheWLock = true → s.lock.cacheRLock = 0
  timed : ∀ t awake, s.phase t = .waiting .timed awake → t = status

theorem counted_start (status : τ) : Counted status (LockState.start : LockState τ) := by
  have hnone (p : Phase → Bool) (hp : p .outside = false) :
      0 = countOf p (fun _ : τ ↦ Phase.outside) := by
    refine Eq.symm (Nat.eq_zero_of_not_pos fun hpos ↦ ?_)
    obtain ⟨t, ht⟩ := countOf_pos.mp hpos
    exact Bool.false_ne_true (hp.symm.trans ht)
  exact ⟨hnone _ rfl, hnone _ rfl, hnone _ rfl, hnone _ rfl, fun h ↦ absurd h Bool.false_ne_true,
    fun t awake h ↦ absurd h (by simp [LockState.start])⟩

/-- Waking threads changes no number. -/
theorem Counted.wakes (hs : Counted status ⟨l, phase⟩) (h : Wakes phase phase') :
    Counted status ⟨l, phase'⟩ := by
  constructor
  · exact hs.cacheRLock.trans (h.countOf_eq fun _ ↦ rfl).symm
  · exact hs.cacheWLock.trans (h.countOf_eq fun _ ↦ rfl).symm
  · exact hs.rPend.trans (h.countOf_eq fun w ↦ by cases w <;> rfl).symm
  · exact hs.rwPend.trans (h.countOf_eq fun w ↦ by cases w <;> rfl).symm
  · exact hs.exclusive
  · intro t awake ht
    obtain ⟨awake', hbefore⟩ := h.waiting_before ht
    exact hs.timed t awake' hbefore

theorem Counted.rPend_pos (hs : Counted status s) {awake : Bool}
    (h : s.phase t = .waiting .reader awake) : 0 < s.lock.rPend := by
  rw [hs.rPend]
  exact countOf_pos.mpr ⟨t, by rw [h]; rfl⟩

theorem Counted.rwPend_pos (hs : Counted status s) {awake : Bool} (hw : w ≠ .reader)
    (h : s.phase t = .waiting w awake) : 0 < s.lock.rwPend := by
  rw [hs.rwPend]
  exact countOf_pos.mpr ⟨t, Phase.isPendingRw_iff.mpr ⟨w, awake, hw, h⟩⟩

theorem Counted.cacheRLock_pos (hs : Counted status s) (h : (s.phase t).isReading = true) :
    0 < s.lock.cacheRLock := by
  rw [hs.cacheRLock]
  exact countOf_pos.mpr ⟨t, h⟩

theorem Counted.cacheWLock_eq_true (hs : Counted status s) (h : (s.phase t).isWriting = true) :
    s.lock.cacheWLock = true := by
  have hpos := countOf_pos.mpr ⟨t, h⟩
  rw [← hs.cacheWLock] at hpos
  cases hwrites : s.lock.cacheWLock with
  | true => rfl
  | false => rw [hwrites] at hpos; exact absurd hpos (Nat.lt_irrefl 0)

/-- Who has the lock for reading is not excluded by a writer. -/
theorem Counted.cacheWLock_eq_false (hs : Counted status s) (h : (s.phase t).isReading = true) :
    s.lock.cacheWLock = false := by
  have hpos := hs.cacheRLock_pos h
  cases hwrites : s.lock.cacheWLock with
  | false => rfl
  | true => exact absurd (hs.exclusive hwrites) hpos.ne'

variable [DecidableEq τ]

/-- A thread moves, and the variables change as its move says. -/
theorem Counted.move (hs : Counted status s) (h : s.phase t = x)
    (hreads : l.cacheRLock + x.isReading.toNat = s.lock.cacheRLock + y.isReading.toNat)
    (hwrites : l.cacheWLock.toNat + x.isWriting.toNat = s.lock.cacheWLock.toNat + y.isWriting.toNat)
    (hpendR : l.rPend + x.isPendingR.toNat = s.lock.rPend + y.isPendingR.toNat)
    (hpendRw : l.rwPend + x.isPendingRw.toNat = s.lock.rwPend + y.isPendingRw.toNat)
    (hexclusive : l.cacheWLock = true → l.cacheRLock = 0)
    (htimed : ∀ awake, y = .waiting .timed awake → t = status) :
    Counted status (s.move t (y, l)) := by
  have hcount (p : Phase → Bool) :
      countOf p (s.move t (y, l)).phase + (p x).toNat = countOf p s.phase + (p y).toNat := by
    rw [← h]
    exact countOf_update p s.phase t y
  constructor
  · have := hcount Phase.isReading
    rw [← hs.cacheRLock] at this
    exact Nat.add_right_cancel (hreads.trans this.symm)
  · have := hcount Phase.isWriting
    rw [← hs.cacheWLock] at this
    exact Nat.add_right_cancel (hwrites.trans this.symm)
  · have := hcount Phase.isPendingR
    rw [← hs.rPend] at this
    exact Nat.add_right_cancel (hpendR.trans this.symm)
  · have := hcount Phase.isPendingRw
    rw [← hs.rwPend] at this
    exact Nat.add_right_cancel (hpendRw.trans this.symm)
  · exact hexclusive
  · intro u awake hu
    by_cases hut : u = t
    · rw [hut, LockState.move_phase_self] at hu
      exact hut.trans (htimed awake hu)
    · exact hs.timed u awake ((Function.update_of_ne hut _ _).symm.trans hu)

theorem Counted.pend (hs : Counted status s) (h : s.phase t = .outside ∨ s.phase t = .yielding)
    (htimed : w = .timed → t = status) :
    Counted status (s.move t (.waiting w true, s.lock.pend w)) := by
  have hstays : (s.phase t).isReading = false ∧ (s.phase t).isWriting = false ∧
      (s.phase t).isPendingR = false ∧ (s.phase t).isPendingRw = false := by
    cases h with
    | inl h => rw [h]; exact ⟨rfl, rfl, rfl, rfl⟩
    | inr h => rw [h]; exact ⟨rfl, rfl, rfl, rfl⟩
  obtain ⟨hr, hw, hpr, hprw⟩ := hstays
  refine hs.move rfl ?_ ?_ ?_ ?_ ?_ fun _ hy ↦ htimed (Phase.waiting.inj hy).1
  · rw [hr]; cases w <;> rfl
  · rw [hw]; cases w <;> rfl
  · rw [hpr]; cases w <;> rfl
  · rw [hprw]; cases w <;> rfl
  · cases w <;> exact hs.exclusive

theorem Counted.attempt (hs : Counted status s) {awake : Bool}
    (h : s.phase t = .waiting w awake) : Counted status (s.move t (s.lock.attempt w)) := by
  have hspec := attempt_spec w s.lock
  have htimed (hw : w = .timed) : t = status := hs.timed t awake (hw ▸ h)
  revert hspec
  generalize s.lock.attempt w = result
  intro hspec
  cases hspec with
  | suspends => exact hs.move h rfl rfl rfl rfl hs.exclusive (by simp)
  | waits => exact hs.move h rfl rfl rfl rfl hs.exclusive (by simp)
  | reads _ _ hfree =>
    have hpos := hs.rPend_pos h
    refine hs.move h rfl rfl ?_ rfl (fun hwrites ↦ ?_) (by simp)
    · exact Nat.sub_add_cancel hpos
    · exact absurd (hwrites.symm.trans hfree) (by decide)
  | busy hw =>
    refine hs.move h rfl rfl ?_ ?_ hs.exclusive fun _ hy ↦ htimed (Phase.waiting.inj hy).1
    · cases w <;> rfl
    · cases w <;> rfl
  | writes hw hfree hunread =>
    have hpos := hs.rwPend_pos hw h
    refine hs.move h rfl ?_ ?_ ?_ (fun _ ↦ hunread) (by simp)
    · rw [hfree]
      rfl
    · rw [Phase.isPendingR_of_ne hw]
      rfl
    · rw [Phase.isPendingRw_iff.mpr ⟨w, awake, hw, rfl⟩]
      exact Nat.sub_add_cancel hpos

theorem Counted.unlockR (hs : Counted status s) {soft : Bool} (h : s.phase t = .reading soft) :
    Counted status (s.move t (.outside, s.lock.unlockR)) := by
  have hpos := hs.cacheRLock_pos (h ▸ rfl : (s.phase t).isReading = true)
  have hfree := hs.cacheWLock_eq_false (h ▸ rfl : (s.phase t).isReading = true)
  rw [CacheLock.unlockR, if_pos hpos]
  refine hs.move h (Nat.sub_add_cancel hpos) rfl rfl rfl (fun hwrites ↦ ?_) (by simp)
  exact absurd (hwrites.symm.trans hfree) (by decide)

theorem Counted.unlockRw (hs : Counted status s) {soft : Bool} (h : s.phase t = .writing soft)
    (hx : x = .outside ∨ x = .yielding) {rSusp : Bool} :
    Counted status (s.move t (x, { s.lock with cacheWLock := false, rSusp := rSusp })) := by
  have hwrites := hs.cacheWLock_eq_true (h ▸ rfl : (s.phase t).isWriting = true)
  refine hs.move h ?_ ?_ ?_ ?_ (fun hw ↦ absurd hw Bool.false_ne_true) fun _ hy ↦ ?_
  · cases hx with
    | inl hx => rw [hx]; rfl
    | inr hx => rw [hx]; rfl
  · rw [hwrites]
    cases hx with
    | inl hx => rw [hx]; rfl
    | inr hx => rw [hx]; rfl
  · cases hx with
    | inl hx => rw [hx]; rfl
    | inr hx => rw [hx]; rfl
  · cases hx with
    | inl hx => rw [hx]; rfl
    | inr hx => rw [hx]; rfl
  · cases hx with
    | inl hx => exact absurd (hx.symm.trans hy) (by simp)
    | inr hx => exact absurd (hx.symm.trans hy) (by simp)

/-- What one critical section preserves. -/
theorem Counted.step (hs : Counted status s) (hstep : LockStep status s s') :
    Counted status s' := by
  cases hstep with
  | enter t w h htimed =>
    have hpend := (hs.pend (.inl h) htimed).attempt (s.move_phase_self t _)
    rwa [LockState.move_move] at hpend
  | woken t w h => exact hs.attempt h
  | spurious t w h =>
    refine hs.move h rfl rfl ?_ ?_ hs.exclusive fun _ hy ↦ ?_
    · cases w <;> rfl
    · cases w <;> rfl
    · exact hs.timed t false ((Phase.waiting.inj hy).1 ▸ h)
  | timeout t awake h =>
    exact hs.move h rfl rfl rfl (Nat.sub_add_cancel (hs.rwPend_pos (by decide) h)) hs.exclusive
      (by simp)
  | unlockR t h hphase =>
    refine (hs.unlockR h).wakes ?_
    split at hphase
    · exact hphase.wakes_phase
    · exact fun u ↦ .inl (congrFun hphase u)
  | unlockRw t h hphase => exact (hs.unlockRw h (.inl rfl)).wakes hphase.wakes
  | yield t h hphase => exact (hs.unlockRw h (.inr rfl)).wakes hphase.wakes
  | relock t h =>
    have hpend := (hs.pend (w := .writer) (.inr h) (by simp)).attempt (s.move_phase_self t _)
    rwa [LockState.move_move] at hpend

theorem Counted.softStep (hs : Counted status s) (hstep : SoftStep s s') : Counted status s' := by
  cases hstep with
  | lockR t h hfree =>
    refine hs.move h rfl rfl rfl rfl (fun hwrites ↦ ?_) (by simp)
    exact absurd (hwrites.symm.trans hfree) (by decide)
  | lockRw t h hfree hunread =>
    refine hs.move h rfl ?_ rfl rfl (fun _ ↦ hunread) (by simp)
    rw [hfree]
    rfl
  | unlockR t h => exact hs.unlockR h
  | unlockRw t h => exact hs.unlockRw h (.inl rfl)

/-- What is done by any number of threads in any order, up to the end of the daemon. -/
abbrev LockRun (status : τ) : LockState τ → LockState τ → Prop :=
  Relation.ReflTransGen fun s s' ↦ LockStep status s s' ∨ SoftStep s s'

theorem Counted.run (h : LockRun status .start s) : Counted status s := by
  induction h with
  | refl => exact counted_start status
  | tail _ hstep ih => exact hstep.elim ih.step ih.softStep

/-- In whatever order threads call the functions, also the soft ones: while a thread has the lock for
writing, no other thread has it at all, and the variables are the numbers of the threads that have the
lock and of those that wait for it. -/
theorem cacheLock_exclusive (h : LockRun status .start s) :
    (∀ t u, (s.phase t).isWriting = true →
      (s.phase u).isWriting = true ∨ (s.phase u).isReading = true → u = t) ∧
    s.lock.cacheWLock.toNat = countOf Phase.isWriting s.phase ∧
    s.lock.cacheRLock = countOf Phase.isReading s.phase ∧
    s.lock.rwPend = countOf Phase.isPendingRw s.phase ∧
    s.lock.rPend = countOf Phase.isPendingR s.phase := by
  have hs := Counted.run h
  refine ⟨fun t u ht hu ↦ ?_, hs.cacheWLock, hs.cacheRLock, hs.rwPend, hs.rPend⟩
  cases hu with
  | inl hu =>
    have hle : countOf Phase.isWriting s.phase ≤ 1 := by
      rw [← hs.cacheWLock]
      exact Bool.toNat_le _
    exact eq_of_countOf_le_one hle hu ht
  | inr hu =>
    have hwrites := hs.cacheWLock_eq_true ht
    exact absurd (hs.exclusive hwrites) (hs.cacheRLock_pos hu).ne'

/-- One of two threads writes. -/
def taken : LockState (Fin 2) :=
  LockState.start.move 0 (CacheLock.enter .writer ⟨false, 0, 0, 0, false⟩)

/-- The other one waits. -/
def contended : LockState (Fin 2) := taken.move 1 (taken.lock.enter .writer)

theorem contended_run : Relation.ReflTransGen (LockStep (1 : Fin 2)) .start contended :=
  .tail (.single (show LockStep 1 .start taken from .enter 0 .writer rfl (by simp)))
    (.enter 1 .writer rfl (by simp))

theorem cacheLock_exclusive_contended :
    (∀ t u, (contended.phase t).isWriting = true →
      (contended.phase u).isWriting = true ∨ (contended.phase u).isReading = true → u = t) ∧
    contended.lock.cacheWLock.toNat = countOf Phase.isWriting contended.phase ∧
    contended.lock.cacheRLock = countOf Phase.isReading contended.phase ∧
    contended.lock.rwPend = countOf Phase.isPendingRw contended.phase ∧
    contended.lock.rPend = countOf Phase.isPendingR contended.phase :=
  cacheLock_exclusive (Relation.ReflTransGen.mono (fun _ _ h ↦ Or.inl h) _ _ contended_run)

end Counting

section Wakefulness

variable {status t : τ} {s s' : LockState τ} {l : CacheLock} {w : Waiter}
  {x y : Phase} {phase phase' : τ → Phase} {kept : Prop}

/-- A writer waits whose wait has no time limit. -/
def HasWriter (phase : τ → Phase) : Prop := ∃ t awake, phase t = .waiting .writer awake

/-- A thread is awake that gets a free lock. -/
def CanAcquire (s : LockState τ) : Prop := ∃ t w, s.phase t = .waiting w true ∧
  (w = .reader → s.lock.rSusp = false ∧ s.lock.rwPend ≤ suspThresh s.lock.rPend)

/-- The wait of a thread that was woken ends with its time limit, so it takes the signal with it and
does not look at the lock. -/
def LosesSignal (s s' : LockState τ) : Prop :=
  ∃ t, s.phase t = .waiting .timed true ∧ s'.phase t = .outside

/-- Readers are asleep or suspended only while a writer comes before them, and, if the signals were
kept, threads do not sleep in front of a free lock. -/
structure Wakeful (kept : Prop) (s : LockState τ) : Prop where
  suspended : s.lock.rSusp = true → s.lock.cacheWLock = true ∨ HasWriter s.phase
  asleep : ∀ t, s.phase t = .waiting .reader false →
    s.lock.cacheWLock = true ∨ HasWriter s.phase
  free : kept → s.lock.cacheWLock = false → s.lock.cacheRLock = 0 →
    ∀ t w awake, s.phase t = .waiting w awake → CanAcquire s

theorem wakeful_start (kept : Prop) : Wakeful kept (LockState.start : LockState τ) :=
  ⟨fun h ↦ absurd h Bool.false_ne_true, fun t h ↦ absurd h (by simp [LockState.start]),
    fun _ _ _ t w awake h ↦ absurd h (by simp [LockState.start])⟩

/-- A thread that only moves within its wait, or that was not a writer, leaves the writers. -/
theorem HasWriter.update [DecidableEq τ] (h : HasWriter phase) (ht : phase t = x)
    (hx : (∀ awake, x ≠ .waiting .writer awake) ∨ ∃ awake, y = .waiting .writer awake) :
    HasWriter (Function.update phase t y) := by
  obtain ⟨u, awake, hu⟩ := h
  by_cases hut : u = t
  · cases hx with
    | inl hx => exact absurd (ht.symm.trans (hut ▸ hu)) (hx awake)
    | inr hy =>
      obtain ⟨awake', hy⟩ := hy
      exact ⟨t, awake', by rw [Function.update_self, hy]⟩
  · exact ⟨u, awake, by rw [Function.update_of_ne hut, hu]⟩

theorem HasWriter.wakes (h : HasWriter phase) (hwakes : Wakes phase phase') : HasWriter phase' := by
  obtain ⟨u, awake, hu⟩ := h
  exact ⟨u, hwakes.waiting hu⟩

/-- More writers than suspend the readers are not all the one whose wait has a time limit. -/
theorem Counted.hasWriter [Fintype τ] (hs : Counted status s)
    (h : suspThresh s.lock.rPend < s.lock.rwPend) : HasWriter s.phase := by
  by_contra hnone
  have htimed (t : τ) (ht : (s.phase t).isPendingRw = true) : t = status := by
    obtain ⟨w, awake, hw, hphase⟩ := Phase.isPendingRw_iff.mp ht
    cases w with
    | reader => exact absurd rfl hw
    | writer => exact absurd ⟨t, awake, hphase⟩ hnone
    | timed => exact hs.timed t awake hphase
  have hone : countOf Phase.isPendingRw s.phase ≤ 1 := by
    refine Finset.card_le_one.mpr fun t ht u hu ↦ ?_
    rw [htimed t (by simpa using ht), htimed u (by simpa using hu)]
  rw [← hs.rwPend] at hone
  rw [suspThresh] at h
  omega

/-- The thread that can acquire the lock is another one than a thread that is not awake, or that is a
reader who has to wait. -/
theorem CanAcquire.update [DecidableEq τ] (h : CanAcquire s)
    (ht : ∀ w, s.phase t = .waiting w true →
      w = .reader ∧ (s.lock.rSusp = true ∨ suspThresh s.lock.rPend < s.lock.rwPend))
    (hsusp : l.rSusp = s.lock.rSusp ∧ l.rwPend ≤ s.lock.rwPend ∧ s.lock.rPend ≤ l.rPend ∨
      s.lock.rSusp = true ∨ suspThresh s.lock.rPend < s.lock.rwPend) :
    CanAcquire (s.move t (y, l)) := by
  obtain ⟨u, w, hu, hreader⟩ := h
  have hut : u ≠ t := by
    rintro rfl
    obtain ⟨hw, hwait⟩ := ht w hu
    obtain ⟨hsusp, hle⟩ := hreader hw
    cases hwait with
    | inl hwait => exact absurd (hwait.symm.trans hsusp) (by decide)
    | inr hwait => omega
  refine ⟨u, w, (Function.update_of_ne hut _ _).trans hu, fun hw ↦ ?_⟩
  obtain ⟨hfalse, hle⟩ := hreader hw
  rcases hsusp with ⟨hsame, hrw, hr⟩ | htrue | hlt
  · refine ⟨hsame.trans hfalse, hrw.trans (hle.trans ?_)⟩
    exact Nat.add_le_add_right (Nat.div_le_div_right hr) 2
  · exact absurd (htrue.symm.trans hfalse) (by decide)
  · omega

variable [DecidableEq τ] [Fintype τ]

theorem Wakeful.pend (hs : Counted status s) (hw : Wakeful kept s)
    (h : s.phase t = .outside ∨ s.phase t = .yielding) :
    Wakeful kept (s.move t (.waiting w true, s.lock.pend w)) := by
  have hnot (w : Waiter) (awake : Bool) : s.phase t ≠ .waiting w awake := by
    cases h with
    | inl h => rw [h]; simp
    | inr h => rw [h]; simp
  have hsame : (s.lock.pend w).rSusp = s.lock.rSusp ∧
      (s.lock.pend w).cacheWLock = s.lock.cacheWLock ∧
      (s.lock.pend w).cacheRLock = s.lock.cacheRLock := by
    cases w <;> exact ⟨rfl, rfl, rfl⟩
  have hwriter (hhas : HasWriter s.phase) :
      HasWriter (s.move t (.waiting w true, s.lock.pend w)).phase :=
    hhas.update rfl (.inl (hnot .writer))
  constructor
  · intro hsusp
    rw [LockState.move_lock, hsame.2.1]
    exact (hw.suspended (hsame.1.symm.trans hsusp)).imp_right hwriter
  · intro u hu
    rw [LockState.move_lock, hsame.2.1]
    by_cases hut : u = t
    · rw [hut, LockState.move_phase_self] at hu
      exact absurd (Phase.waiting.inj hu).2 (by decide)
    · exact (hw.asleep u ((Function.update_of_ne hut _ _).symm.trans hu)).imp_right hwriter
  · intro hkept hfree hunread _ _ _ _
    rw [LockState.move_lock, hsame.2.1] at hfree
    rw [LockState.move_lock, hsame.2.2] at hunread
    cases w with
    | writer => exact ⟨t, .writer, s.move_phase_self t _, by simp⟩
    | timed => exact ⟨t, .timed, s.move_phase_self t _, by simp⟩
    | reader =>
      by_cases hgets : s.lock.rSusp = false ∧ s.lock.rwPend ≤ suspThresh (s.lock.rPend + 1)
      · exact ⟨t, .reader, s.move_phase_self t _, fun _ ↦ hgets⟩
      · -- suspended or suspending readers have a writer before them, who gets the lock
        have hwait : s.lock.rSusp = true ∨ suspThresh s.lock.rPend < s.lock.rwPend := by
          rcases Bool.eq_false_or_eq_true s.lock.rSusp with htrue | hfalse
          · exact .inl htrue
          · right
            have hlt := Nat.lt_of_not_le fun hle ↦ hgets ⟨hfalse, hle⟩
            exact Nat.lt_of_le_of_lt
              (Nat.add_le_add_right (Nat.div_le_div_right (Nat.le_succ _)) 2) hlt
        have hhas : HasWriter s.phase := by
          rcases hwait with htrue | hlt
          · rcases hw.suspended htrue with hwrites | hhas
            · exact absurd (hwrites.symm.trans hfree) (by decide)
            · exact hhas
          · exact hs.hasWriter hlt
        obtain ⟨v, awake, hv⟩ := hhas
        exact (hw.free hkept hfree hunread v .writer awake hv).update
          (fun w h ↦ absurd h (hnot w true)) (.inr hwait)

theorem Wakeful.attempt (hs : Counted status s) (hw : Wakeful kept s) {awake : Bool}
    (h : s.phase t = .waiting w awake) : Wakeful kept (s.move t (s.lock.attempt w)) := by
  have hspec := attempt_spec w s.lock
  revert hspec
  generalize s.lock.attempt w = result
  intro hspec
  cases hspec with
  | suspends hlt =>
    have hhas := (hs.hasWriter hlt).update (y := .waiting .reader false) h (.inl (by simp))
    refine ⟨fun _ ↦ .inr hhas, fun _ _ ↦ .inr hhas, fun hkept hfree hunread _ _ _ _ ↦ ?_⟩
    refine (hw.free hkept hfree hunread t .reader awake h).update (fun w hphase ↦ ?_) (.inr (.inr hlt))
    exact ⟨(Phase.waiting.inj (hphase.symm.trans h)).1, .inr hlt⟩
  | waits hle hor =>
    have hkeeps (hhas : HasWriter s.phase) :
        HasWriter (s.move t (.waiting .reader false, s.lock)).phase :=
      hhas.update h (.inl (by simp))
    have hmust : s.lock.cacheWLock = true ∨
        HasWriter (s.move t (.waiting .reader false, s.lock)).phase := by
      cases hor with
      | inl hsusp => exact (hw.suspended hsusp).imp_right hkeeps
      | inr hwrites => exact .inl hwrites
    refine ⟨fun hsusp ↦ (hw.suspended hsusp).imp_right hkeeps, fun _ _ ↦ hmust,
      fun hkept hfree hunread _ _ _ _ ↦ ?_⟩
    have hsusp : s.lock.rSusp = true := by
      cases hor with
      | inl hsusp => exact hsusp
      | inr hwrites => exact absurd (hwrites.symm.trans hfree) (by decide)
    refine (hw.free hkept hfree hunread t .reader awake h).update (fun w hphase ↦ ?_) (.inr (.inl hsusp))
    exact ⟨(Phase.waiting.inj (hphase.symm.trans h)).1, .inl hsusp⟩
  | reads hle hsusp hfree =>
    refine ⟨fun htrue ↦ absurd (htrue.symm.trans hsusp) (by decide), fun u hu ↦ ?_,
      fun _ _ hunread ↦ absurd hunread (Nat.succ_ne_zero _)⟩
    have hut : u ≠ t := by
      rintro rfl
      rw [LockState.move_phase_self] at hu
      exact absurd hu (by simp)
    exact (hw.asleep u ((Function.update_of_ne hut _ _).symm.trans hu)).imp_right
      fun hhas ↦ hhas.update h (.inl (by simp))
  | busy hne hbusy =>
    have hkeeps (hhas : HasWriter s.phase) :
        HasWriter (s.move t (.waiting w false, s.lock)).phase := by
      refine hhas.update h ?_
      by_cases hwriter : w = .writer
      · exact .inr ⟨false, by rw [hwriter]⟩
      · exact .inl fun awake' heq ↦ hwriter (Phase.waiting.inj heq).1
    refine ⟨fun hsusp ↦ (hw.suspended hsusp).imp_right hkeeps, fun u hu ↦ ?_,
      fun _ hfree hunread ↦ ?_⟩
    · have hut : u ≠ t := by
        rintro rfl
        rw [LockState.move_phase_self] at hu
        exact hne (Phase.waiting.inj hu).1
      exact (hw.asleep u ((Function.update_of_ne hut _ _).symm.trans hu)).imp_right hkeeps
    · cases hbusy with
      | inl hwrites => exact absurd (hwrites.symm.trans hfree) (by decide)
      | inr hreads => exact absurd hunread hreads
  | writes =>
    exact ⟨fun _ ↦ .inl rfl, fun _ _ ↦ .inl rfl, fun _ hfree ↦ absurd hfree.symm Bool.false_ne_true⟩

omit [Fintype τ] in
/-- After a signal to the writers, one of them is awake if there is any. -/
theorem SignalsRw.canAcquire (h : SignalsRw phase phase') (hw : w ≠ .reader) {awake : Bool}
    (ht : phase' t = .waiting w awake) : CanAcquire ⟨l, phase'⟩ := by
  cases h with
  | nobody hnone =>
    cases awake with
    | false => exact absurd (hnone t w ht) hw
    | true => exact ⟨t, w, ht, fun heq ↦ absurd heq hw⟩
  | wakes u hu => exact ⟨u, _, Function.update_self _ _ _, fun heq ↦ absurd heq hu⟩

theorem Wakeful.unlockR (hs : Counted status s) (hw : Wakeful kept s)
    (h : s.phase t = .reading false)
    (hphase : if s.lock.unlockR.cacheRLock = 0
      then SignalsRw (Function.update s.phase t .outside) phase
      else phase = Function.update s.phase t .outside) : Wakeful kept ⟨s.lock.unlockR, phase⟩ := by
  have hfree := hs.cacheWLock_eq_false (h ▸ rfl : (s.phase t).isReading = true)
  have hlock : s.lock.unlockR.rSusp = s.lock.rSusp ∧
      s.lock.unlockR.cacheWLock = s.lock.cacheWLock ∧
      s.lock.unlockR.rwPend = s.lock.rwPend ∧ s.lock.unlockR.rPend = s.lock.rPend := by
    rw [CacheLock.unlockR]
    split <;> exact ⟨rfl, rfl, rfl, rfl⟩
  have hwakes : Wakes (Function.update s.phase t .outside) phase := by
    split at hphase
    · exact hphase.wakes_phase
    · exact fun u ↦ .inl (congrFun hphase u)
  have hkeeps (hhas : HasWriter s.phase) : HasWriter phase :=
    (hhas.update h (.inl (by simp))).wakes hwakes
  have hbefore {u : τ} {w : Waiter} {awake : Bool}
      (hu : Function.update s.phase t .outside u = .waiting w awake) :
      s.phase u = .waiting w awake :=
    waiting_of_update (by simp) hu
  constructor
  · intro hsusp
    exact .inr (hkeeps ((hw.suspended (hlock.1.symm.trans hsusp)).resolve_left
      (by rw [hfree]; decide)))
  · intro u hu
    exact .inr (hkeeps ((hw.asleep u (hbefore (hwakes.asleep_before hu))).resolve_left
      (by rw [hfree]; decide)))
  · intro _ _ hunread u w awake hu
    rw [if_pos hunread] at hphase
    by_cases hpending : ∃ v w awake, w ≠ .reader ∧ phase v = .waiting w awake
    · obtain ⟨v, w', awake', hne, hv⟩ := hpending
      exact hphase.canAcquire hne hv
    · -- no writer waits, so no reader is suspended or asleep
      have hnone : ¬HasWriter s.phase := by
        intro hhas
        obtain ⟨v, awake', hv⟩ := hkeeps hhas
        exact hpending ⟨v, .writer, awake', by decide, hv⟩
      have hsusp : s.lock.rSusp = false := by
        rw [← Bool.not_eq_true]
        intro htrue
        exact hnone ((hw.suspended htrue).resolve_left (by rw [hfree]; decide))
      have hreader : w = .reader := by
        by_contra hne
        exact hpending ⟨u, w, awake, hne, hu⟩
      have hrw : s.lock.rwPend = 0 := by
        refine Nat.eq_zero_of_not_pos fun hpos ↦ ?_
        rw [hs.rwPend] at hpos
        obtain ⟨v, hv⟩ := countOf_pos.mp hpos
        obtain ⟨w', awake', hne, hv⟩ := Phase.isPendingRw_iff.mp hv
        obtain ⟨awake'', hv⟩ := hwakes.waiting (waiting_update (by rw [h]; simp) hv)
        exact hpending ⟨v, w', awake'', hne, hv⟩
      cases awake with
      | true =>
        refine ⟨u, w, hu, fun _ ↦ ⟨hlock.1.trans hsusp, ?_⟩⟩
        rw [hlock.2.2.1, hrw]
        exact Nat.zero_le _
      | false =>
        rw [hreader] at hu
        exact absurd ((hw.asleep u (hbefore (hwakes.asleep_before hu))).resolve_left
          (by rw [hfree]; decide)) hnone

theorem Wakeful.unlockRw (hs : Counted status s) (h : s.phase t = .writing false)
    (hx : x = .outside ∨ x = .yielding)
    (hphase : WakesNext s.lock (Function.update s.phase t x) phase) :
    Wakeful kept ⟨s.lock.unlockRw, phase⟩ := by
  have hnot (w : Waiter) (awake : Bool) : x ≠ .waiting w awake := by
    cases hx with
    | inl hx => rw [hx]; simp
    | inr hx => rw [hx]; simp
  have hleft (w : Waiter) (awake : Bool) : s.phase t ≠ .waiting w awake := by
    rw [h]
    simp
  have hwakes := hphase.wakes
  -- a reader that is left waiting has a writer before it
  have hbefore {u : τ} {awake : Bool} (hpref : s.lock.PrefersWriter)
      (hu : phase u = .waiting .reader awake) : HasWriter phase := by
    obtain ⟨awake', hu⟩ := hwakes.waiting_before hu
    have hpos := hs.rPend_pos (waiting_of_update hnot hu)
    have hlt := hpref.resolve_left hpos.ne'
    exact ((hs.hasWriter hlt).update h (.inl (by simp))).wakes hwakes
  cases hphase with
  | writer hpref hsignal =>
    refine ⟨fun hsusp ↦ absurd hsusp Bool.false_ne_true, fun u hu ↦ .inr (hbefore hpref hu),
      fun _ _ _ u w awake hu ↦ ?_⟩
    by_cases hreader : w = .reader
    · obtain ⟨v, awake', hv⟩ := hbefore hpref (hreader ▸ hu)
      exact hsignal.canAcquire (by decide) hv
    · exact hsignal.canAcquire hreader hu
  | readers hpref =>
    refine ⟨fun hsusp ↦ absurd hsusp Bool.false_ne_true,
      fun u hu ↦ absurd hu (broadcastR_ne _ u), fun _ _ _ u w awake hu ↦ ?_⟩
    obtain ⟨hpend, hle⟩ := not_or.mp hpref
    have hpos : 0 < countOf Phase.isPendingR s.phase := by
      rw [← hs.rPend]
      exact Nat.pos_of_ne_zero hpend
    obtain ⟨v, hv⟩ := countOf_pos.mp hpos
    obtain ⟨awake', hv⟩ := Phase.isPendingR_iff.mp hv
    exact ⟨v, .reader, broadcastR_reader (waiting_update hleft hv),
      fun _ ↦ ⟨rfl, Nat.le_of_not_lt hle⟩⟩

theorem Wakeful.step (hs : Counted status s) (hw : Wakeful kept s) (hstep : LockStep status s s')
    (hkeeps : kept → ¬LosesSignal s s') : Wakeful kept s' := by
  cases hstep with
  | enter t w h htimed =>
    have hnext := (Wakeful.pend hs hw (.inl h)).attempt (hs.pend (.inl h) htimed)
      (s.move_phase_self t _)
    rwa [LockState.move_move] at hnext
  | woken t w h => exact hw.attempt hs h
  | spurious t w h =>
    have hhas (hhas : HasWriter s.phase) :
        HasWriter (s.move t (.waiting w true, s.lock)).phase := by
      refine hhas.update h ?_
      by_cases hwriter : w = .writer
      · exact .inr ⟨true, by rw [hwriter]⟩
      · exact .inl fun awake' heq ↦ hwriter (Phase.waiting.inj heq).1
    refine ⟨fun hsusp ↦ (hw.suspended hsusp).imp_right hhas, fun u hu ↦ ?_,
      fun hkept hfree hunread _ _ _ _ ↦ ?_⟩
    · have hut : u ≠ t := by
        rintro rfl
        rw [LockState.move_phase_self] at hu
        exact absurd (Phase.waiting.inj hu).2 (by decide)
      exact (hw.asleep u ((Function.update_of_ne hut _ _).symm.trans hu)).imp_right hhas
    · refine (hw.free hkept hfree hunread t w false h).update (fun w' hphase ↦ ?_)
        (.inl ⟨rfl, le_rfl, le_rfl⟩)
      exact absurd (Phase.waiting.inj (h.symm.trans hphase)).2 (by decide)
  | timeout t awake h =>
    have hhas (hhas : HasWriter s.phase) : HasWriter (Function.update s.phase t .outside) :=
      hhas.update h (.inl (by simp))
    refine ⟨fun hsusp ↦ (hw.suspended hsusp).imp_right hhas, fun u hu ↦ ?_,
      fun hkept hfree hunread _ _ _ _ ↦ ?_⟩
    · exact (hw.asleep u (waiting_of_update (by simp) hu)).imp_right hhas
    · -- the thread was asleep, so the one that can get the lock is another one
      refine (hw.free hkept hfree hunread t .timed awake h).update (fun w' hphase ↦ ?_)
        (.inl ⟨rfl, Nat.sub_le _ _, le_rfl⟩)
      obtain ⟨-, rfl⟩ := Phase.waiting.inj (h.symm.trans hphase)
      exact absurd ⟨t, h, s.move_phase_self t _⟩ (hkeeps hkept)
  | unlockR t h hphase => exact hw.unlockR hs h hphase
  | unlockRw t h hphase => exact Wakeful.unlockRw hs h (.inl rfl) hphase
  | yield t h hphase => exact Wakeful.unlockRw hs h (.inr rfl) hphase
  | relock t h =>
    have hnext := (Wakeful.pend (w := .writer) hs hw (.inr h)).attempt (hs.pend (.inr h) (by simp))
      (s.move_phase_self t _)
    rwa [LockState.move_move] at hnext

theorem Wakeful.run (h : Relation.ReflTransGen (LockStep status) .start s) :
    Counted status s ∧ Wakeful False s := by
  induction h with
  | refl => exact ⟨counted_start status, wakeful_start False⟩
  | tail _ hstep ih => exact ⟨ih.1.step hstep, ih.2.step ih.1 hstep False.elim⟩

/-- A thread has the lock, or no thread waits for it. -/
def Settled (s : LockState τ) : Prop :=
  (∃ t, (s.phase t).isWriting = true ∨ (s.phase t).isReading = true) ∨
    ∀ t w awake, s.phase t ≠ .waiting w awake

omit [DecidableEq τ] in
/-- While a thread has the lock no signal is missing. -/
theorem Wakeful.of_settled (hs : Counted status s) (hw : Wakeful False s) (hsettled : Settled s) :
    Wakeful True s := by
  refine ⟨hw.suspended, hw.asleep, fun _ hfree hunread t w awake ht ↦ ?_⟩
  rcases hsettled with ⟨u, hwrites | hreads⟩ | hnone
  · exact absurd ((hs.cacheWLock_eq_true hwrites).symm.trans hfree) (by decide)
  · exact absurd hunread (hs.cacheRLock_pos hreads).ne'
  · exact absurd ht (hnone t w awake)

/-- A step that loses no signal. -/
def KeepingStep (status : τ) (s s' : LockState τ) : Prop :=
  LockStep status s s' ∧ ¬LosesSignal s s'

theorem Wakeful.keepingRun {s₀ : LockState τ} (hs : Counted status s₀) (hw : Wakeful True s₀)
    (hrun : Relation.ReflTransGen (KeepingStep status) s₀ s) :
    Counted status s ∧ Wakeful True s := by
  induction hrun with
  | refl => exact ⟨hs, hw⟩
  | tail _ hstep ih => exact ⟨ih.1.step hstep.1, ih.2.step ih.1 hstep.1 fun _ ↦ hstep.2⟩

/-- No wakeup is lost until the daemon exits, but with the time limit of `timedlock_cache_rw`: if
since a thread had the lock, or none waited for it, no thread left its wait by the limit that had been
woken, then whenever threads wait and no thread has the lock, one of those that wait is awake and gets
the lock in its next critical section, if no other thread comes before it. -/
theorem cacheLock_no_lost_wakeup {s₀ : LockState τ}
    (h : Relation.ReflTransGen (LockStep status) .start s₀) (hsettled : Settled s₀)
    (hrun : Relation.ReflTransGen (KeepingStep status) s₀ s)
    (hfree : ∀ t, (s.phase t).isWriting = false ∧ (s.phase t).isReading = false)
    (hwaits : ∃ t w awake, s.phase t = .waiting w awake) :
    ∃ t w, s.phase t = .waiting w true ∧
      (((s.move t (s.lock.attempt w)).phase t).isWriting = true ∨
        ((s.move t (s.lock.attempt w)).phase t).isReading = true) := by
  obtain ⟨hbefore, hquiet⟩ := Wakeful.run h
  obtain ⟨hs, hw⟩ := Wakeful.keepingRun hbefore (hquiet.of_settled hbefore hsettled) hrun
  have hwrites : s.lock.cacheWLock = false := by
    cases hlock : s.lock.cacheWLock with
    | false => rfl
    | true =>
      have hpos : 0 < countOf Phase.isWriting s.phase := by
        rw [← hs.cacheWLock, hlock]
        exact Nat.one_pos
      obtain ⟨t, ht⟩ := countOf_pos.mp hpos
      exact absurd (ht.symm.trans (hfree t).1) (by decide)
  have hreads : s.lock.cacheRLock = 0 := by
    refine Nat.eq_zero_of_not_pos fun hpos ↦ ?_
    rw [hs.cacheRLock] at hpos
    obtain ⟨t, ht⟩ := countOf_pos.mp hpos
    exact absurd (ht.symm.trans (hfree t).2) (by decide)
  obtain ⟨t, w, awake, ht⟩ := hwaits
  obtain ⟨u, v, hu, hreader⟩ := hw.free trivial hwrites hreads t w awake ht
  refine ⟨u, v, hu, ?_⟩
  rw [LockState.move_phase_self]
  have hspec := attempt_spec v s.lock
  revert hspec
  generalize s.lock.attempt v = result
  intro hspec
  cases hspec with
  | suspends hlt => exact absurd (hreader rfl).2 (Nat.not_le.mpr hlt)
  | waits hle hor =>
    cases hor with
    | inl hsusp => exact absurd (hsusp.symm.trans (hreader rfl).1) (by decide)
    | inr hlock => exact absurd (hlock.symm.trans hwrites) (by decide)
  | reads => exact .inr rfl
  | busy hne hbusy =>
    cases hbusy with
    | inl hlock => exact absurd (hlock.symm.trans hwrites) (by decide)
    | inr hlock => exact absurd hreads hlock
  | writes => exact .inl rfl

/-- The writer has unlocked the cache, and the other thread has not run since. -/
def handed : LockState (Fin 2) :=
  ⟨contended.lock.unlockRw,
    Function.update (Function.update contended.phase 0 .outside) 1 (.waiting .writer true)⟩

theorem handed_step : LockStep (1 : Fin 2) contended handed := by
  refine .unlockRw 0 rfl (.writer (.inl rfl) ?_)
  exact .wakes 1 (by decide) rfl

theorem handed_keepingStep : KeepingStep (1 : Fin 2) contended handed :=
  ⟨handed_step, by
    rintro ⟨t, ht, -⟩
    revert ht
    decide +revert⟩

theorem cacheLock_no_lost_wakeup_handed : ∃ t w, handed.phase t = .waiting w true ∧
    (((handed.move t (handed.lock.attempt w)).phase t).isWriting = true ∨
      ((handed.move t (handed.lock.attempt w)).phase t).isReading = true) :=
  cacheLock_no_lost_wakeup contended_run (.inl ⟨0, .inl rfl⟩) (.single handed_keepingStep)
    (by decide) ⟨1, .writer, true, rfl⟩

/-- One thread writes and two wait, one of them with the time limit. -/
def crowded : LockState (Fin 3) :=
  let first := LockState.start.move 0 (CacheLock.enter .writer ⟨false, 0, 0, 0, false⟩)
  let second := first.move 1 (first.lock.enter .timed)
  second.move 2 (second.lock.enter .writer)

/-- The writer has unlocked the cache and woken the thread with the time limit. -/
def signalled : LockState (Fin 3) :=
  ⟨crowded.lock.unlockRw,
    Function.update (Function.update crowded.phase 0 .outside) 1 (.waiting .timed true)⟩

/-- Its time is over at that moment. -/
def lost : LockState (Fin 3) :=
  signalled.move 1 (.outside, { signalled.lock with rwPend := signalled.lock.rwPend - 1 })

theorem lost_run : Relation.ReflTransGen (LockStep (1 : Fin 3)) .start lost := by
  have hcrowded : Relation.ReflTransGen (LockStep (1 : Fin 3)) .start crowded :=
    .tail (.tail (.single (.enter 0 .writer rfl (by decide))) (.enter 1 .timed rfl (by decide)))
      (.enter 2 .writer rfl (by decide))
  have hsignalled : LockStep (1 : Fin 3) crowded signalled :=
    .unlockRw 0 rfl (.writer (.inl rfl) (.wakes 1 (by decide) rfl))
  exact .tail (.tail hcrowded hsignalled) (.timeout 1 true rfl)

/-- The condition cannot be left out: the time limit can take the only signal, and then a thread
sleeps in front of the free lock. -/
theorem lost_asleep : lost.phase 2 = .waiting .writer false ∧
    (∀ t, (lost.phase t).isWriting = false ∧ (lost.phase t).isReading = false) ∧
    ∀ t w, lost.phase t ≠ .waiting w true := by
  refine ⟨rfl, by decide, fun t w ↦ ?_⟩
  cases w <;> exact (by decide : ∀ t, lost.phase t ≠ _) t

end Wakefulness

end Orbot.Pdnsd
